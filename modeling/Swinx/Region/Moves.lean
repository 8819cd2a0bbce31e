import Mathlib.Tactic.Ring
import Swinx.Region.Combine
import Swinx.Region.Shapes

/-!
# Tight regions

A region whose rectangles are in canonical form, with the bounding box if there are any, is tight.
The bounding box of an empty region may be anything: `REGION_MirrorRegion` moves that, too.  Two
tight regions with the same points have the same rectangles and, unless they are empty, the same
bounding box.

* `rects_eq_of_covers` — the canonical form of the points is unique.
* `setRectRgn_tight`, `offsetRegion_tight`, `mirrorRegion_tight`, `unionRectWithRegion_spec`.
* `combineRgn_tight` — `CombineRgn` on regions that are tight.
-/

namespace Swinx

namespace Region

open Function (update update_idem update_of_ne update_self)

open Bands

/-- **A tight region.** -/
structure WINEREGION.Tight (rgn : WINEREGION) : Prop where
  canonical : Canonical rgn.rects
  bounds : rgn.rects ≠ [] → Bounds rgn.Covers rgn.extents.left rgn.extents.top rgn.extents.right
    rgn.extents.bottom

theorem WINEREGION.WellFormed.tight {rgn : WINEREGION} (h : rgn.WellFormed) : rgn.Tight :=
  ⟨h.canonical, h.bounds⟩

theorem covers_congr {rgn rgn' : WINEREGION} (h : rgn.rects = rgn'.rects) (x y : ℤ) :
    rgn.Covers x y ↔ rgn'.Covers x y := by
  unfold WINEREGION.Covers
  rw [h]

/-- **The canonical form of the points is unique.** -/
theorem rects_eq_of_covers {rgn rgn' : WINEREGION} (h : rgn.Tight) (h' : rgn'.Tight)
    (hcov : ∀ x y, rgn.Covers x y ↔ rgn'.Covers x y) : rgn.rects = rgn'.rects := by
  obtain ⟨D, hD, hrects⟩ := h.canonical
  obtain ⟨E, hE, hrects'⟩ := h'.canonical
  rw [hrects, hrects', hD.eq_of_coversIn hE fun x y => ?_]
  rw [← covers_iff hrects, ← covers_iff hrects', hcov]

/-- The bounding box of a tight region that is not empty is that of its points. -/
theorem extents_eq_of_covers {rgn rgn' : WINEREGION} (h : rgn.Tight) (h' : rgn'.Tight)
    (hcov : ∀ x y, rgn.Covers x y ↔ rgn'.Covers x y) (hne : rgn.rects ≠ []) :
    rgn.extents = rgn'.extents := by
  have hb := (h.bounds hne).congr hcov
  have hb' := h'.bounds (rects_eq_of_covers h h' hcov ▸ hne)
  have hleft := hb.left.unique hb'.left
  have htop := hb.top.unique hb'.top
  have hright := hb.right.unique hb'.right
  have hbottom := hb.bottom.unique hb'.bottom
  cases hext : rgn.extents
  cases hext' : rgn'.extents
  simp_all

theorem canonical_nil : Canonical [] := ⟨[], Banded.nil, rfl⟩

theorem canonical_singleton {r : RECT} (hx : r.left < r.right) (hy : r.top < r.bottom) :
    Canonical [r] :=
  ⟨[⟨r.top, r.bottom, [(r.left, r.right)], hy, by simp, separated_singleton hx⟩],
    List.isChain_singleton _, rfl⟩

theorem wellFormed_of_rects_eq {rgn : WINEREGION} {r : RECT} (hrects : rgn.rects = [r])
    (hext : rgn.extents = r) (hx : r.left < r.right) (hy : r.top < r.bottom) :
    rgn.WellFormed := by
  have hcov : ∀ x y, rgn.Covers x y ↔ (r.left ≤ x ∧ x < r.right) ∧ r.top ≤ y ∧ y < r.bottom :=
    fun x y => by simp [WINEREGION.Covers, hrects]
  refine ⟨hrects ▸ canonical_singleton hx hy, fun h => ?_, fun _ => ?_⟩
  · rw [hrects] at h
    cases h
  · rw [hext]
    refine ⟨⟨⟨r.top, (hcov _ _).2 (by omega)⟩, ?_⟩, ⟨⟨r.left, (hcov _ _).2 (by omega)⟩, ?_⟩,
      ⟨fun x y h => ((hcov x y).1 h).1.2, fun r' hr' => ?_⟩,
      ⟨fun x y h => ((hcov x y).1 h).2.2, fun b' hb' => ?_⟩⟩
    · rintro x ⟨y, h⟩
      exact ((hcov x y).1 h).1.1
    · rintro y ⟨x, h⟩
      exact ((hcov x y).1 h).2.1
    · have := hr' (r.right - 1) r.top ((hcov _ _).2 (by omega))
      show r.right ≤ r'
      omega
    · have := hb' r.left (r.bottom - 1) ((hcov _ _).2 (by omega))
      show r.bottom ≤ b'
      omega

theorem wellFormed_of_rects_eq_nil {rgn : WINEREGION} (hrects : rgn.rects = [])
    (hext : rgn.extents = ⟨0, 0, 0, 0⟩) : rgn.WellFormed :=
  ⟨hrects ▸ canonical_nil, fun _ => hext, fun h => absurd hrects h⟩

theorem ordered_le (a b : ℤ) : (ordered a b).1 ≤ (ordered a b).2 := by
  unfold ordered
  split_ifs with h
  · exact (show b < a from h).le
  · exact not_lt.1 h

theorem setRectRgn_wellFormed (obj : WINEREGION) (left top right bottom : ℤ) :
    (setRectRgn obj left top right bottom).WellFormed := by
  unfold setRectRgn
  by_cases h : (ordered left right).1 ≠ (ordered left right).2 ∧
      (ordered top bottom).1 ≠ (ordered top bottom).2
  · rw [if_pos h]
    exact wellFormed_of_rects_eq rfl rfl (lt_of_le_of_ne (ordered_le _ _) h.1)
      (lt_of_le_of_ne (ordered_le _ _) h.2)
  · rw [if_neg h]
    exact wellFormed_of_rects_eq_nil rfl rfl

/-- **`REGION_UnionRectWithRegion`** adds the points of a rectangle that is not empty. -/
theorem unionRectWithRegion_spec {rect : RECT} {rgn : WINEREGION} (hx : rect.left < rect.right)
    (hy : rect.top < rect.bottom) (h : rgn.WellFormed) :
    Yields WINEREGION.WellFormed (fun _ => True) (unionRectWithRegion rect rgn) := by
  let m : Mem Unit := update (fun _ => rgn) .tra (rectRegion rect)
  have hobj : (m (.obj ())).WellFormed := by simpa [m] using h
  have htra : (m .tra).WellFormed := by
    simp only [m, update_self]
    exact wellFormed_of_rects_eq rfl rfl hx hy
  exact ((unionRegion_spec (.obj ()) hobj htra).imp (fun _ h => h) fun _ _ => trivial).map
    fun m' hm' => hm'.wellFormed

/-- The band at another place. -/
def shiftBand (x y : ℤ) (b : Band ℤ) : Band ℤ where
  top := b.top + y
  bottom := b.bottom + y
  spans := b.spans.map fun s => (s.1 + x, s.2 + x)
  top_lt := by have := b.top_lt; omega
  ne_nil := by simpa using b.ne_nil
  separated := by
    refine ⟨fun s hs => ?_, List.pairwise_map.2 (b.separated.gap.imp fun {s t} h => ?_)⟩
    · obtain ⟨t, ht, rfl⟩ := List.mem_map.1 hs
      have := b.separated.lt t ht
      show t.1 + x < t.2 + x
      omega
    · show s.2 + x < t.1 + x
      omega

theorem rectsOf_shift (x y : ℤ) (D : List (Band ℤ)) :
    rectsOf (D.map (shiftBand x y)) = (rectsOf D).map fun r => r.offset x y := by
  induction D with
  | nil => rfl
  | cons b D ih =>
    rw [List.map_cons, rectsOf_cons, rectsOf_cons, List.map_append, ih]
    simp only [bandRects, shiftBand, List.map_map]
    rfl

theorem banded_shift (x y : ℤ) {D : List (Band ℤ)} (h : Banded D) :
    Banded (D.map (shiftBand x y)) := by
  refine List.isChain_map_of_isChain _ (fun b c hbc => ⟨?_, fun hy hs => ?_⟩) h
  · have := hbc.1
    show b.bottom + y ≤ c.top + y
    omega
  · have hy : b.bottom + y = c.top + y := hy
    refine hbc.2 (by omega) (List.map_injective_iff.2 (fun s t hst => ?_) hs)
    simp only [Prod.mk.injEq, add_left_inj] at hst
    exact Prod.ext hst.1 hst.2

/-- **`REGION_OffsetRegion`** keeps the form. -/
theorem offsetRegion_tight {rgn rgn' : WINEREGION} {x y : ℤ} (h : rgn.Tight)
    (hoff : offsetRegion rgn x y = some rgn') : rgn'.Tight := by
  unfold offsetRegion at hoff
  split_ifs at hoff with hnil hint
  · cases hoff
    exact h
  · cases hoff
    have hne : rgn.rects ≠ [] := fun h => hnil (.inr h)
    obtain ⟨D, hD, hrects⟩ := h.canonical
    have hB := h.bounds hne
    refine ⟨⟨D.map (shiftBand x y), banded_shift x y hD, by rw [rectsOf_shift, ← hrects]⟩,
      fun _ => ?_⟩
    refine Bounds.congr (P := fun u v => rgn.Covers (u - x) (v - y)) ?_ fun u v => ?_
    · refine ⟨⟨?_, ?_⟩, ⟨?_, ?_⟩, ⟨fun u v huv => ?_, fun r hr => ?_⟩,
        ⟨fun u v huv => ?_, fun b hb => ?_⟩⟩
      · obtain ⟨v, hv⟩ := hB.left.1
        exact ⟨v + y, by simpa [RECT.offset] using hv⟩
      · rintro u ⟨v, huv⟩
        have := hB.left.2 ⟨_, huv⟩
        simp only [RECT.offset]
        omega
      · obtain ⟨u, hu⟩ := hB.top.1
        exact ⟨u + x, by simpa [RECT.offset] using hu⟩
      · rintro v ⟨u, huv⟩
        have := hB.top.2 ⟨_, huv⟩
        simp only [RECT.offset]
        omega
      · have := hB.right.1 _ _ huv
        simp only [RECT.offset]
        omega
      · have := hB.right.2 (show r - x ∈ _ from fun u v huv => by
          have := hr (u + x) (v + y) (by simpa using huv)
          omega)
        simp only [RECT.offset]
        omega
      · have := hB.bottom.1 _ _ huv
        simp only [RECT.offset]
        omega
      · have := hB.bottom.2 (show b - y ∈ _ from fun u v huv => by
          have := hb (u + x) (v + y) (by simpa using huv)
          omega)
        simp only [RECT.offset]
        omega
    · simp only [WINEREGION.Covers, RECT.offset, List.mem_map, exists_exists_and_eq_and]
      refine exists_congr fun r => and_congr_right fun _ => ?_
      omega

/-- The interval as seen in a mirror. -/
def mirrorSpan (width : ℤ) (s : ℤ × ℤ) : ℤ × ℤ := (width - s.2, width - s.1)

theorem mirrorSpan_injective (width : ℤ) : Function.Injective (mirrorSpan width) := by
  intro s t h
  simp only [mirrorSpan, Prod.mk.injEq] at h
  exact Prod.ext (by omega) (by omega)

/-- The band as seen in a mirror. -/
def mirrorBand (width : ℤ) (b : Band ℤ) : Band ℤ where
  top := b.top
  bottom := b.bottom
  spans := (b.spans.map (mirrorSpan width)).reverse
  top_lt := b.top_lt
  ne_nil := by simpa using b.ne_nil
  separated := by
    refine ⟨fun s hs => ?_, List.pairwise_reverse.2 (List.pairwise_map.2 (b.separated.gap.imp
      fun {s t} h => ?_))⟩
    · obtain ⟨t, ht, rfl⟩ := List.mem_map.1 (List.mem_reverse.1 hs)
      have := b.separated.lt t ht
      show width - t.2 < width - t.1
      omega
    · show width - t.1 < width - s.2
      omega

theorem bandRects_mirror (width : ℤ) (b : Band ℤ) :
    bandRects (mirrorBand width b) = ((bandRects b).reverse).map fun r => r.mirror width := by
  simp only [bandRects, mirrorBand, List.map_reverse, List.map_map]
  rfl

theorem reverseBands_rectsOf {D : List (Band ℤ)} (h : Banded D) :
    reverseBands (rectsOf D) = D.flatMap fun b => (bandRects b).reverse := by
  induction D with
  | nil => simp [reverseBands]
  | cons b D ih =>
    obtain ⟨a, r, har, -, -⟩ := exists_head b D
    obtain ⟨htop, hafter⟩ := topBand_rectsOf (top_ne_of_banded h)
    rw [har, reverseBands, ← har, htop, hafter, ih h.tail, List.flatMap_cons]

theorem rectsOf_mirror (width : ℤ) {D : List (Band ℤ)} (h : Banded D) :
    rectsOf (D.map (mirrorBand width)) =
      (reverseBands (rectsOf D)).map fun r => r.mirror width := by
  rw [reverseBands_rectsOf h, List.map_flatMap, rectsOf, List.flatMap_map]
  exact List.flatMap_congr fun b _ => bandRects_mirror width b

theorem banded_mirror (width : ℤ) {D : List (Band ℤ)} (h : Banded D) :
    Banded (D.map (mirrorBand width)) :=
  List.isChain_map_of_isChain _ (fun _ _ hbc => ⟨hbc.1, fun hy hs =>
    hbc.2 hy (List.map_injective_iff.2 (mirrorSpan_injective width) (List.reverse_injective hs))⟩) h

theorem mem_reverseBands {rects : List RECT} {r : RECT} :
    r ∈ reverseBands rects ↔ r ∈ rects := by
  induction rects using reverseBands.induct with
  | case1 => simp [reverseBands]
  | case2 a rs ih =>
    rw [reverseBands, List.mem_append, List.mem_reverse, ih, ← List.mem_append,
      topBand_append_afterBand]

/-- **`REGION_MirrorRegion`** keeps the form. -/
theorem mirrorRegion_tight {dst src rgn : WINEREGION} {same : Bool} {width : ℤ} (h : src.Tight)
    (hmir : mirrorRegion dst src same width = some (some rgn)) : rgn.Tight := by
  unfold mirrorRegion at hmir
  split at hmir
  · cases hmir
  · split_ifs at hmir
    cases hmir
    obtain ⟨D, hD, hrects⟩ := h.canonical
    refine ⟨⟨D.map (mirrorBand width), banded_mirror width hD,
      by rw [rectsOf_mirror width hD, ← hrects]⟩, fun hne => ?_⟩
    have hB := h.bounds fun hnil => hne (by simp [hnil, reverseBands])
    -- the point `x` of the result is the point `width - 1 - x` of the source
    refine Bounds.congr (P := fun u v => src.Covers (width - 1 - u) v) ?_ fun u v => ?_
    · refine ⟨⟨?_, ?_⟩, ⟨?_, ?_⟩, ⟨fun u v huv => ?_, fun r hr => ?_⟩,
        ⟨fun u v huv => ?_, fun b hb => ?_⟩⟩
      · by_contra hno
        -- else the right side could be moved to the left
        have := hB.right.2 (show src.extents.right - 1 ∈ _ from fun u v huv => by
          by_contra hge
          have hlt := hB.right.1 u v huv
          refine hno ⟨v, ?_⟩
          rw [show width - 1 - (src.extents.mirror width).left = u by
            simp only [RECT.mirror]
            omega]
          exact huv)
        omega
      · rintro u ⟨v, huv⟩
        have := hB.right.1 _ _ huv
        simp only [RECT.mirror]
        omega
      · obtain ⟨u, hu⟩ := hB.top.1
        exact ⟨width - 1 - u, by simpa [RECT.mirror] using hu⟩
      · rintro v ⟨u, huv⟩
        exact hB.top.2 ⟨_, huv⟩
      · have := hB.left.2 ⟨_, huv⟩
        simp only [RECT.mirror]
        omega
      · obtain ⟨v, hv⟩ := hB.left.1
        have := hr (width - 1 - src.extents.left) v (by simpa using hv)
        simp only [RECT.mirror]
        omega
      · exact hB.bottom.1 _ _ huv
      · exact hB.bottom.2 fun u v huv => hb (width - 1 - u) v (by simpa using huv)
    · simp only [WINEREGION.Covers, RECT.mirror, List.mem_map, mem_reverseBands,
        exists_exists_and_eq_and]
      refine exists_congr fun r => and_congr_right fun _ => ?_
      omega

/-! ### `CombineRgn` -/

theorem WINEREGION.ext_of {rgn rgn' : WINEREGION} (hsize : rgn.size = rgn'.size)
    (hrects : rgn.rects = rgn'.rects) (hext : rgn.extents = rgn'.extents) : rgn = rgn' := by
  cases rgn
  cases rgn'
  simp_all

/-- The region, with the bounding box of `empty_region` if it is empty. -/
def clean (rgn : WINEREGION) : WINEREGION := if rgn.rects = [] then emptyRegion rgn else rgn

theorem clean_rects (rgn : WINEREGION) : (clean rgn).rects = rgn.rects := by
  unfold clean
  split_ifs with h
  · exact h.symm
  · rfl

theorem clean_size (rgn : WINEREGION) : (clean rgn).size = rgn.size := by
  unfold clean
  split_ifs <;> rfl

theorem clean_of_ne {rgn : WINEREGION} (h : rgn.rects ≠ []) : clean rgn = rgn := if_neg h

theorem clean_wellFormed {rgn : WINEREGION} (h : rgn.Tight) : (clean rgn).WellFormed := by
  by_cases hnil : rgn.rects = []
  · refine wellFormed_of_rects_eq_nil ((clean_rects rgn).trans hnil) ?_
    unfold clean
    rw [if_pos hnil]
    rfl
  · rw [clean_of_ne hnil]
    exact ⟨h.canonical, fun h => absurd h hnil, h.bounds⟩

theorem clean_clean (rgn : WINEREGION) : clean (clean rgn) = clean rgn := by
  by_cases hnil : rgn.rects = []
  · unfold clean
    rw [if_pos hnil]
    rfl
  · rw [clean_of_ne hnil, clean_of_ne hnil]

section Clean

variable {rgn rgn' : WINEREGION}

theorem rects_of_clean (h : clean rgn = clean rgn') : rgn.rects = rgn'.rects := by
  rw [← clean_rects rgn, h, clean_rects]

theorem size_of_clean (h : clean rgn = clean rgn') : rgn.size = rgn'.size := by
  rw [← clean_size rgn, h, clean_size]

theorem numRects_of_clean (h : clean rgn = clean rgn') : rgn.numRects = rgn'.numRects :=
  congrArg List.length (rects_of_clean h)

theorem eq_of_clean (h : clean rgn = clean rgn') (hne : rgn.rects ≠ []) : rgn = rgn' := by
  have hne' : rgn'.rects ≠ [] := rects_of_clean h ▸ hne
  rwa [clean_of_ne hne, clean_of_ne hne'] at h

theorem clean_congr (hsize : rgn.size = rgn'.size) (hrects : rgn.rects = rgn'.rects)
    (hext : rgn.rects ≠ [] → rgn.extents = rgn'.extents) : clean rgn = clean rgn' := by
  by_cases hnil : rgn.rects = []
  · refine WINEREGION.ext_of (by rw [clean_size, clean_size, hsize])
      (by rw [clean_rects, clean_rects, hrects]) ?_
    unfold clean
    rw [if_pos hnil, if_pos (hrects ▸ hnil)]
    rfl
  · rw [WINEREGION.ext_of hsize hrects (hext hnil)]

theorem Tight.of_clean (h : clean rgn = clean rgn') (hw : rgn'.WellFormed) : rgn.Tight := by
  have hrects := rects_of_clean h
  refine ⟨hrects ▸ hw.canonical, fun hne => ?_⟩
  rw [eq_of_clean h hne]
  exact hw.bounds (hrects ▸ hne)

end Clean

variable {ρ η : Type*} [DecidableEq ρ]

omit [DecidableEq ρ] in
/-- All regions, clean. -/
def cleanMem (m : Mem ρ) : Mem ρ := fun p => clean (m p)

omit [DecidableEq ρ] in
theorem cleanMem_cleanMem (m : Mem ρ) : cleanMem (cleanMem m) = cleanMem m :=
  funext fun p => clean_clean (m p)

theorem cleanMem_update (m : Mem ρ) (p : Ptr ρ) (rgn : WINEREGION) :
    cleanMem (update m p rgn) = update (cleanMem m) p (clean rgn) := by
  funext q
  by_cases h : q = p
  · subst h
    simp [cleanMem]
  · simp [cleanMem, h]

section Agree

variable {m m' : Mem ρ}

omit [DecidableEq ρ] in
theorem clean_of_cleanMem (h : cleanMem m = cleanMem m') (p : Ptr ρ) :
    clean (m p) = clean (m' p) := congrFun h p

theorem cleanMem_update_congr (h : cleanMem m = cleanMem m') (p : Ptr ρ) {rgn rgn' : WINEREGION}
    (hr : clean rgn = clean rgn') :
    cleanMem (update m p rgn) = cleanMem (update m' p rgn') := by
  rw [cleanMem_update, cleanMem_update, h, hr]

theorem copyRegion_clean (h : cleanMem m = cleanMem m') (dst src : Ptr ρ) :
    cleanMem (copyRegion m dst src) = cleanMem (copyRegion m' dst src) := by
  have hdst := clean_of_cleanMem h dst
  have hsrc := clean_of_cleanMem h src
  have hrects := rects_of_clean hsrc
  have hext : (m src).rects ≠ [] → (m src).extents = (m' src).extents := fun hne =>
    congrArg _ (eq_of_clean hsrc hne)
  unfold copyRegion
  split_ifs with heq
  · exact h
  · refine cleanMem_update_congr h dst (clean_congr ?_ hrects hext)
    show (growRegion (m dst) (m src).numRects).size = (growRegion (m' dst) (m' src).numRects).size
    rw [numRects_of_clean hsrc]
    unfold growRegion
    simp only [size_of_clean hdst]
    split_ifs with hle
    · exact size_of_clean hdst
    · rfl

/-- `REGION_RegionOp`, and after it a change of the destination. -/
theorem regionOp_clean (h : cleanMem m = cleanMem m') {ops : Callbacks} {dest reg1 reg2 : Ptr ρ}
    (f : Mem ρ → WINEREGION) (hne1 : (m reg1).rects ≠ []) (hne2 : (m reg2).rects ≠ [])
    (hf : ∀ rgn, clean (f (update m dest (moveRects (m dest) rgn))) =
      clean (f (update m' dest (moveRects (m' dest) rgn)))) :
    ((regionOp ops m dest reg1 reg2).map fun m => update m dest (f m)).map cleanMem =
      ((regionOp ops m' dest reg1 reg2).map fun m => update m dest (f m)).map
        cleanMem := by
  unfold regionOp
  rw [eq_of_clean (clean_of_cleanMem h reg1) hne1, eq_of_clean (clean_of_cleanMem h reg2) hne2]
  cases opRegion ops (m' reg1) (m' reg2) with
  | error e => rfl
  | ok newReg =>
    refine congrArg Except.ok ?_
    simp only [update_idem]
    exact cleanMem_update_congr h dest (hf newReg)

theorem extents_update_moveRects (m : Mem ρ) (dest p : Ptr ρ) (rgn : WINEREGION) :
    (update m dest (moveRects (m dest) rgn) p).extents = (m p).extents := by
  by_cases hp : p = dest
  · subst hp
    rw [update_self]
    rfl
  · rw [update_of_ne hp]

theorem setExtents_clean {rgn rgn' : WINEREGION} (hsize : rgn.size = rgn'.size)
    (hrects : rgn.rects = rgn'.rects) : clean (setExtents rgn) = clean (setExtents rgn') := by
  cases rgn
  cases rgn'
  obtain rfl : _ = _ := hsize
  obtain rfl : _ = _ := hrects
  unfold setExtents
  simp only

omit [DecidableEq ρ] in
theorem overlapping_clean (h : cleanMem m = cleanMem m') (reg1 reg2 : Ptr ρ) :
    ((m reg1).numRects = 0 ∨ (m reg2).numRects = 0 ∨
        overlapping (m reg1).extents (m reg2).extents = false) ↔
      (m' reg1).numRects = 0 ∨ (m' reg2).numRects = 0 ∨
        overlapping (m' reg1).extents (m' reg2).extents = false := by
  have h1 := clean_of_cleanMem h reg1
  have h2 := clean_of_cleanMem h reg2
  rw [numRects_of_clean h1, numRects_of_clean h2]
  by_cases hn1 : (m' reg1).numRects = 0
  · simp [hn1]
  · by_cases hn2 : (m' reg2).numRects = 0
    · simp [hn2]
    · rw [eq_of_clean h1 (rects_ne_nil (numRects_of_clean h1 ▸ hn1)),
        eq_of_clean h2 (rects_ne_nil (numRects_of_clean h2 ▸ hn2))]

theorem intersectRegion_clean (h : cleanMem m = cleanMem m') (newReg reg1 reg2 : Ptr ρ) :
    (intersectRegion m newReg reg1 reg2).map cleanMem =
      (intersectRegion m' newReg reg1 reg2).map cleanMem := by
  unfold intersectRegion
  have hiff := overlapping_clean h reg1 reg2
  by_cases htriv : (m' reg1).numRects = 0 ∨ (m' reg2).numRects = 0 ∨
      overlapping (m' reg1).extents (m' reg2).extents = false
  · simp only [if_pos htriv, if_pos (hiff.2 htriv)]
    refine congrArg Except.ok ?_
    simp only [update_self, update_idem]
    have hsize := size_of_clean (clean_of_cleanMem h newReg)
    exact cleanMem_update_congr h newReg (setExtents_clean hsize rfl)
  · have htriv₀ := fun h => htriv (hiff.1 h)
    simp only [if_neg htriv, if_neg htriv₀]
    obtain ⟨hne1, hne2, -⟩ := not_or.1 htriv₀ |>.imp_right not_or.1
    refine regionOp_clean h (fun m => setExtents (m newReg)) (rects_ne_nil hne1) (rects_ne_nil hne2)
      fun rgn => ?_
    rw [update_self, update_self]
    exact setExtents_clean rfl rfl

theorem subtractRegion_clean (h : cleanMem m = cleanMem m') (regD regM regS : Ptr ρ) :
    (subtractRegion m regD regM regS).map cleanMem =
      (subtractRegion m' regD regM regS).map cleanMem := by
  unfold subtractRegion
  have hiff := overlapping_clean h regM regS
  by_cases htriv : (m' regM).numRects = 0 ∨ (m' regS).numRects = 0 ∨
      overlapping (m' regM).extents (m' regS).extents = false
  · rw [if_pos htriv, if_pos (hiff.2 htriv)]
    exact congrArg Except.ok (copyRegion_clean h _ _)
  · have htriv₀ := fun h => htriv (hiff.1 h)
    rw [if_neg htriv, if_neg htriv₀]
    obtain ⟨hne1, hne2, -⟩ := not_or.1 htriv₀ |>.imp_right not_or.1
    refine regionOp_clean h (fun m => setExtents (m regD)) (rects_ne_nil hne1) (rects_ne_nil hne2)
      fun rgn => ?_
    rw [update_self, update_self]
    exact setExtents_clean rfl rfl

theorem unionRegion_clean (h : cleanMem m = cleanMem m') (newReg reg1 reg2 : Ptr ρ) :
    (unionRegion m newReg reg1 reg2).map cleanMem =
      (unionRegion m' newReg reg1 reg2).map cleanMem := by
  have h1 := clean_of_cleanMem h reg1
  have h2 := clean_of_cleanMem h reg2
  unfold unionRegion
  rw [numRects_of_clean h1, numRects_of_clean h2]
  by_cases hnil1 : reg1 = reg2 ∨ (m' reg1).numRects = 0
  · rw [if_pos hnil1, if_pos hnil1]
    exact congrArg Except.ok (copyRegion_clean h _ _)
  · rw [if_neg hnil1, if_neg hnil1]
    by_cases hnil2 : (m' reg2).numRects = 0
    · rw [if_pos hnil2, if_pos hnil2]
      exact congrArg Except.ok (copyRegion_clean h _ _)
    · rw [if_neg hnil2, if_neg hnil2]
      have hne1 := rects_ne_nil (numRects_of_clean h1 ▸ (not_or.1 hnil1).2)
      have hne2 := rects_ne_nil (numRects_of_clean h2 ▸ hnil2)
      rw [eq_of_clean h1 hne1, eq_of_clean h2 hne2]
      split_ifs
      · exact congrArg Except.ok (copyRegion_clean h _ _)
      · exact congrArg Except.ok (copyRegion_clean h _ _)
      · refine regionOp_clean h _ hne1 hne2 fun rgn => clean_congr ?_ ?_ fun _ => ?_
        · rw [update_self, update_self]
          rfl
        · rw [update_self, update_self]
          rfl
        · simp only [extents_update_moveRects, eq_of_clean h1 hne1, eq_of_clean h2 hne2]

theorem xorRegion_clean (h : cleanMem m = cleanMem m') (dr sra srb : Ptr ρ) :
    (xorRegion m dr sra srb).map cleanMem = (xorRegion m' dr sra srb).map cleanMem := by
  unfold xorRegion
  rw [numRects_of_clean (clean_of_cleanMem h sra), numRects_of_clean (clean_of_cleanMem h srb)]
  cases (succ (m' sra).numRects).bind initRegion with
  | error e => rfl
  | ok tra =>
    cases (succ (m' srb).numRects).bind initRegion with
    | error e => rfl
    | ok trb =>
      have htra : cleanMem (update m .tra tra) = cleanMem (update m' .tra tra) :=
        cleanMem_update_congr h .tra rfl
      refine map_bind_congr (subtractRegion_clean (cleanMem_update_congr htra .trb rfl) _ _ _) ?_
      exact fun m₁ m₁' h₁ => map_bind_congr (subtractRegion_clean h₁ _ _ _)
        fun m₂ m₂' h₂ => unionRegion_clean h₂ _ _ _

/-- All operations look only at what clean regions have in common. -/
theorem operation_clean (h : cleanMem m = cleanMem m') {mode : ℕ}
    {op : Mem ρ → Ptr ρ → Ptr ρ → Ptr ρ → Except Fail (Mem ρ)} (hop : operation mode = some op)
    (d s₁ s₂ : Ptr ρ) : (op m d s₁ s₂).map cleanMem = (op m' d s₁ s₂).map cleanMem := by
  unfold operation at hop
  split_ifs at hop
  · cases hop
    exact intersectRegion_clean h _ _ _
  · cases hop
    exact unionRegion_clean h _ _ _
  · cases hop
    exact xorRegion_clean h _ _ _
  · cases hop
    exact subtractRegion_clean h _ _ _

omit [DecidableEq ρ] in
theorem returnType_clean (h : cleanMem m = cleanMem m') (p : Ptr ρ)
    {x y : Except Fail (Mem ρ)} (hxy : x.map cleanMem = y.map cleanMem) :
    (returnType m p x).map (fun r => cleanMem r.1) =
      (returnType m' p y).map fun r => cleanMem r.1 := by
  cases x with
  | ok a =>
    cases y with
    | ok b => exact congrArg Except.ok (Except.ok.inj hxy)
    | error e => cases hxy
  | error e =>
    cases y with
    | ok b => cases hxy
    | error e' =>
      obtain rfl : e = e' := Except.error.inj hxy
      cases e with
      | refused => exact congrArg Except.ok h
      | overflow n => rfl

theorem combineRgn_clean (h : cleanMem m = cleanMem m') (getObjPtr : η → Option ρ)
    (hDest hSrc1 hSrc2 : η) (mode : ℕ) :
    (combineRgn getObjPtr m hDest hSrc1 hSrc2 mode).map (fun r => cleanMem r.1) =
      (combineRgn getObjPtr m' hDest hSrc1 hSrc2 mode).map fun r => cleanMem r.1 := by
  have herror : (Except.ok (m, ERROR) : Except ℕ (Mem ρ × ℕ)).map (fun r => cleanMem r.1) =
      (Except.ok (m', ERROR) : Except ℕ (Mem ρ × ℕ)).map fun r => cleanMem r.1 :=
    congrArg Except.ok h
  unfold combineRgn
  cases getObjPtr hDest with
  | none => exact herror
  | some d =>
    cases getObjPtr hSrc1 with
    | none => exact herror
    | some s₁ =>
      simp only
      split_ifs
      · exact returnType_clean h _ (congrArg Except.ok (copyRegion_clean h _ _))
      · cases getObjPtr hSrc2 with
        | none => exact herror
        | some s₂ =>
          cases hop : operation (ρ := ρ) mode with
          | none => exact herror
          | some op => exact returnType_clean h _ (operation_clean h hop _ _ _)

end Agree

/-- The modes are the codes for which there is an operation, and that of the copy. -/
theorem exists_mode {mode : ℕ} {op : Mem ρ → Ptr ρ → Ptr ρ → Ptr ρ → Except Fail (Mem ρ)}
    (hop : operation mode = some op) : ∃ M : Mode, M ≠ .copy ∧ M.code = mode := by
  unfold operation at hop
  split_ifs at hop with hand hor hxor hdiff
  · exact ⟨.and, by decide, hand.symm⟩
  · exact ⟨.or, by decide, hor.symm⟩
  · exact ⟨.xor, by decide, hxor.symm⟩
  · exact ⟨.diff, by decide, hdiff.symm⟩

/-- `CombineRgn` on well-formed regions, whatever the handles and the mode. -/
theorem combineRgn_wellFormed {getObjPtr : η → Option ρ} {m m' : Mem ρ} {hDest hSrc1 hSrc2 : η}
    {mode ret : ℕ} (h : ∀ o, (m (.obj o)).WellFormed)
    (hc : combineRgn getObjPtr m hDest hSrc1 hSrc2 mode = .ok (m', ret)) (o : ρ) :
    (m' (.obj o)).WellFormed := by
  -- a call that fails leaves the regions as they were
  have hsame : combineRgn getObjPtr m hDest hSrc1 hSrc2 mode = .ok (m, ERROR) →
      (m' (.obj o)).WellFormed := fun h' => by
    obtain rfl : m = m' := (Prod.ext_iff.1 (Except.ok.inj (h'.symm.trans hc))).1
    exact h o
  have hmode : ∀ {d s₁ : ρ} (s₂ : ρ) (M : Mode), M.code = mode → getObjPtr hDest = some d →
      getObjPtr hSrc1 = some s₁ → (M ≠ .copy → getObjPtr hSrc2 = some s₂) →
      (m' (.obj o)).WellFormed := by
    rintro d s₁ s₂ M rfl hd h1 h2
    rcases combineRgn_cases getObjPtr m M hd h1 h2 (h s₁) fun _ => h s₂ with
      ⟨m₁, ret₁, hok, hcomb⟩ | ⟨hok, -⟩ | ⟨n, herr, -⟩
    · obtain rfl : m₁ = m' := (Prod.ext_iff.1 (Except.ok.inj (hok.symm.trans hc))).1
      by_cases hod : o = d
      · exact hod ▸ hcomb.wellFormed
      · rw [hcomb.frame o hod]
        exact h o
    · exact hsame hok
    · rw [herr] at hc
      cases hc
  cases hd : getObjPtr hDest with
  | none => exact hsame (by simp only [combineRgn, hd])
  | some d =>
    cases h1 : getObjPtr hSrc1 with
    | none => exact hsame (by simp only [combineRgn, hd, h1])
    | some s₁ =>
      by_cases hcopy : mode = RGN_COPY
      · exact hmode s₁ .copy hcopy.symm hd h1 fun h => absurd rfl h
      · cases h2 : getObjPtr hSrc2 with
        | none => exact hsame (by simp only [combineRgn, hd, h1, if_neg hcopy, h2])
        | some s₂ =>
          cases hop : operation (ρ := ρ) mode with
          | none => exact hsame (by simp only [combineRgn, hd, h1, if_neg hcopy, h2, hop])
          | some op =>
            obtain ⟨M, -, hM⟩ := exists_mode hop
            exact hmode s₂ M hM hd h1 fun _ => h2

/-- **`CombineRgn` on tight regions.** -/
theorem combineRgn_tight {getObjPtr : η → Option ρ} {m m' : Mem ρ} {hDest hSrc1 hSrc2 : η}
    {mode ret : ℕ} (h : ∀ o, (m (.obj o)).Tight)
    (hc : combineRgn getObjPtr m hDest hSrc1 hSrc2 mode = .ok (m', ret)) (o : ρ) :
    (m' (.obj o)).Tight := by
  have hclean := combineRgn_clean (cleanMem_cleanMem m).symm getObjPtr hDest hSrc1 hSrc2 mode
  rw [hc] at hclean
  cases hc' : combineRgn getObjPtr (cleanMem m) hDest hSrc1 hSrc2 mode with
  | error n =>
    rw [hc'] at hclean
    cases hclean
  | ok r =>
    rw [hc'] at hclean
    exact Tight.of_clean (clean_of_cleanMem (Except.ok.inj hclean) (.obj o))
      (combineRgn_wellFormed (fun o => clean_wellFormed (h o)) hc' o)

end Region

end Swinx
